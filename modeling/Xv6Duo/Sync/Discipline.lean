import Mathlib.Data.List.Nodup
import Mathlib.Tactic.Common
import Xv6Duo.Sync.Model

/-!
# The discipline of spin locks

Kernel code that takes and releases locks as a static check demands runs without a panic, whatever
interrupts come. Interrupts are disabled exactly as the code says: a process that is switched away
finds them as it left them.
-/

namespace Xv6Duo
namespace Sync

open Process (ProcState nproc)

variable {κ χ ν σ : Type} [DecidableEq κ]

/-! ## The check -/

/-- What the text of kernel code says about a place in it. -/
structure Mode (κ : Type) where
  /-- The locks that are held. -/
  held : List (Lock κ)
  /-- The state of the process is `RUNNING`. -/
  going : Bool
  /-- Interrupts are enabled once no lock is held. -/
  ie : Bool
  deriving DecidableEq

/-- User mode, and the start of a trap: no lock, interrupts disabled. -/
def quiet : Mode κ := { held := [], going := true, ie := false }

/-- Where an interrupt may come. -/
def interruptible : Mode κ := { held := [], going := true, ie := true }

/-- The modes before and after calls. -/
abbrev Sig (κ ν : Type) : Type := ν → Option (Fin nproc) → Mode κ → Option (Mode κ)

/-- The mode after an operation of a process, or of an interrupt handler while the scheduler runs;
none if the operation is not allowed. -/
def Op.after (sig : Sig κ ν) (me : Option (Fin nproc)) (mode : Mode κ) :
    Op κ χ ν → Option (Mode κ)
  | .acquire lk => if lk ∈ mode.held then none else some { mode with held := lk :: mode.held }
  | .acquired lk old =>
      if lk ∈ mode.held ∨ mode.held = [] ∧ old ≠ mode.ie then none
      else some { mode with held := lk :: mode.held }
  | .release lk =>
      if lk ∈ mode.held ∧ (mode.going ∨ some lk ≠ me.map Lock.proc) then
        some { mode with held := mode.held.erase lk }
      else none
  | .setState state =>
      match me with
      | some i =>
          if .proc i ∈ mode.held then some { mode with going := state = .running } else none
      | none => none
  | .setChan _ => if me.isSome then some mode else none
  | .sched =>
      match me with
      | some i =>
          if mode.held = [.proc i] ∧ mode.going = false then some { mode with going := true }
          else none
      | none => none
  | .switched intena =>
      if mode.held ≠ [] then some { mode with ie := intena } else none
  | .wake i _ => if .proc i ∈ mode.held ∧ me ≠ some i then some mode else none
  | .rouse i =>
      if .proc i ∈ mode.held ∧ (me = some i → mode.going = true) then some mode else none
  | .mark i state =>
      if .proc i ∈ mode.held ∧ me ≠ some i ∧ (state = .unused ∨ state = .used) then some mode
      else none
  | .start i => if .proc i ∈ mode.held ∧ me ≠ some i then some mode else none
  | .preempt => if mode.held = [] then some mode else none
  | .intrOn => if mode.held = [] then some { mode with ie := true } else none
  | .intrOff => if mode.held = [] then some { mode with ie := false } else none
  | .sret => if mode.held = [] then some { mode with ie := true } else none
  | .call c => sig c me mode

/-- The mode after some operations. -/
def check (sig : Sig κ ν) (me : Option (Fin nproc)) (mode : Mode κ) (ops : List (Op κ χ ν)) :
    Option (Mode κ) :=
  ops.foldlM (fun mode op => op.after sig me mode) mode

/-- Kernel code that keeps to the check. -/
structure Discipline (code : Code κ χ ν σ) where
  /-- The modes before and after calls. -/
  sig : Sig κ ν
  /-- Each call leads to operations that do what is said of it. -/
  sound : ∀ c me mode later data, sig c me mode = some later →
    check sig me mode (code.body c me data).2 = some later
  /-- The handler of the timer interrupt leaves everything as it was. -/
  timer : ∀ me, sig code.timer me quiet = some quiet
  /-- So does the handler of other interrupts. -/
  device : ∀ me, sig code.device me quiet = some quiet
  /-- A new process gets to user mode. -/
  forkret : ∀ i ie, sig code.forkret (some i) { held := [], going := true, ie := ie } = some quiet

section

variable {sig : Sig κ ν} {me : Option (Fin nproc)} {mode later : Mode κ}

@[simp]
theorem check_nil : check sig me mode ([] : List (Op κ χ ν)) = some mode :=
  rfl

@[simp]
theorem check_cons (op : Op κ χ ν) (ops : List (Op κ χ ν)) :
    check sig me mode (op :: ops) = (op.after sig me mode).bind fun m => check sig me m ops :=
  rfl

theorem check_append (first ops : List (Op κ χ ν)) :
    check sig me mode (first ++ ops) =
      (check sig me mode first).bind fun m => check sig me m ops := by
  rw [check, List.foldlM_append]
  rfl

end

/-! ## The invariant -/

variable {code : Code κ χ ν σ}

/-- A new process starts in `forkret`. -/
theorem Discipline.check_forkret (disc : Discipline code) (i : Fin nproc) (ie : Bool) :
    check disc.sig (some i) { held := [.proc i], going := true, ie := ie }
      ([.release (.proc i), .call code.forkret] : List (Op κ χ ν)) = some quiet := by
  rw [check_cons, Op.after, if_pos ⟨List.mem_cons_self, Or.inl rfl⟩]
  change check disc.sig (some i) { held := [Lock.proc i].erase (.proc i), going := true, ie := ie }
    ([.call code.forkret] : List (Op κ χ ν)) = _
  rw [List.erase_cons_head, check_cons, Op.after, disc.forkret i ie]
  rfl

/-- The locks that are held, how many there are, and that interrupts are disabled while there are
any. -/
structure Counted (m : Machine κ χ ν σ) (held : List (Lock κ)) : Prop where
  /-- No lock is held twice. -/
  nodup : held.Nodup
  /-- They are the locks that are held. -/
  locked : ∀ lk, m.locked lk = true ↔ lk ∈ held
  /-- `noff` is their number. -/
  noff : m.noff = held.length
  /-- Interrupts are disabled. -/
  sie : held ≠ [] → m.sie = false

/-- The processor is in a mode. -/
structure Fits (m : Machine κ χ ν σ) (mode : Mode κ) : Prop where
  /-- The locks. -/
  counted : Counted m mode.held
  /-- Without a lock interrupts are as the text says. -/
  free : mode.held = [] → m.sie = mode.ie
  /-- With a lock they will be. -/
  kept : mode.held ≠ [] → m.intena = mode.ie

/-- The mode in which a stack is used up. -/
def last (me : Option (Fin nproc)) : Mode κ := if me.isSome then quiet else interruptible

/-- Where interrupts may find the scheduler. -/
def Pass.Free : Pass → Prop
  | .next _ => True
  | .taking _ _ => True
  | _ => False

/-- The operations that are left are allowed. -/
structure Runs (disc : Discipline code) (m : Machine κ χ ν σ) (mode : Mode κ) : Prop where
  /-- The processor is in the mode. -/
  fits : Fits m mode
  /-- They are allowed in it. -/
  allowed : check disc.sig m.running mode m.ops = some (last m.running)
  /-- The state of the process. -/
  going : ∀ i, m.running = some i → (mode.going = true ↔ (m.proc i).state = .running)
  /-- A process that is about to be switched away holds its lock. -/
  own : ∀ i, m.running = some i → mode.going = false → .proc i ∈ mode.held
  /-- The scheduler is not switched away, and is where it may be interrupted. -/
  idle : m.running = none → mode.going = true ∧ m.pass.Free

/-- The scheduler runs. -/
inductive Scheduling (m : Machine κ χ ν σ) : Prop where
  /-- Without a lock. -/
  | free (place : m.pass.Free) (counted : Counted m [])
  /-- With the lock of a process. -/
  | testing (i : Fin nproc) (place : m.pass = .testing i) (counted : Counted m [.proc i])
  /-- After the process. -/
  | back (i : Fin nproc) (place : m.pass = .back i) (counted : Counted m [.proc i])

/-- A process that does not run. -/
structure Parked (disc : Discipline code) (i : Fin nproc) (p : Thread κ χ ν) : Prop where
  /-- Its state says so. -/
  state : p.state ≠ .running
  /-- It can go on with its lock. -/
  allowed : p.state = .runnable ∨ p.state = .sleeping →
    ∀ ie, check disc.sig (some i) { held := [.proc i], going := true, ie := ie } p.ops = some quiet

/-- The invariant. -/
structure Good (disc : Discipline code) (m : Machine κ χ ν σ) : Prop where
  /-- Processes that do not run. -/
  parked : ∀ i, m.running ≠ some i → Parked disc i (m.proc i)
  /-- While a process runs, the scheduler handles no interrupt. -/
  idle : m.idle ≠ [] → m.running = none
  /-- A process or an interrupt handler runs, or the scheduler does. -/
  context : (∃ mode, Runs disc m mode) ∨ m.running = none ∧ m.idle = [] ∧ Scheduling m

end Sync
end Xv6Duo
