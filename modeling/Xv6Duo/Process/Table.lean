import Xv6Duo.Errno
import Xv6Duo.Process.Credentials

/-!
# The process table

`struct proc` of `include/proc.h` as far as `freeproc` and the calls around `fork`, `exit` and
`wait4` use it, one entry for each of the `NPROC` slots. Page tables and trapframes are named by
their addresses; the memory behind them is left out.
-/

namespace Xv6Duo
namespace Process

/-- `NPROC`. -/
def nproc : Nat := 64

theorem nproc_pos : 0 < nproc := by decide

theorem one_lt_nproc : 1 < nproc := by decide

/-- `NOFILE`. -/
def nofile : Nat := 16

/-- `enum procstate`. -/
inductive ProcState
  /-- A free slot. -/
  | unused
  /-- Allocated, not yet runnable. -/
  | used
  /-- Asleep on a channel. -/
  | sleeping
  /-- Ready to run. -/
  | runnable
  /-- On a processor. -/
  | running
  /-- Exited, not yet waited for. -/
  | zombie
  deriving DecidableEq, Repr

/-- What a process sleeps on. -/
inductive Chan
  /-- The address of a process. -/
  | proc (pp : Fin nproc)
  /-- Another address. -/
  | other (address : UInt64)
  deriving DecidableEq, Repr

/-- `struct proc`. -/
structure Proc where
  /-- State. -/
  state : ProcState
  /-- Channel, while the process sleeps. -/
  chan : Option Chan
  /-- The process was killed. -/
  killed : Bool
  /-- Exit status. -/
  xstate : Int32
  /-- Process id. -/
  pid : Int32
  /-- Process group. -/
  pgid : Int32
  /-- Session. -/
  sid : Int32
  /-- Parent. -/
  parent : Option (Fin nproc)
  /-- User ids and capabilities. -/
  cred : Cred
  /-- Inheritable capabilities. -/
  capInheritable : UInt32
  /-- The group ids `gid`, `egid`, `sgid` and `fsgid`. -/
  gids : Fin 4 → UInt32
  /-- Size of the process memory. -/
  sz : UInt64
  /-- Page table. -/
  pagetable : Option Nat
  /-- Trapframe page. -/
  trapframe : Option Nat
  /-- File mode creation mask. -/
  umask : UInt32
  /-- Descriptor flags. -/
  fdflag : UInt32
  /-- Open files. -/
  ofile : Fin nofile → Option Nat
  /-- Current directory. -/
  cwd : Option Nat
  /-- Name. -/
  name : List UInt8
  /-- Mapped regions. -/
  regions : List Nat
  /-- The bytes of `struct signal`. -/
  signal : List UInt8

/-- The process table. -/
abbrev Table := Fin nproc → Proc

/-- `freeproc`. Descriptors and the current directory stay as they are. -/
def freeproc (p : Proc) : Proc :=
  { p with
    trapframe := none, regions := [], pagetable := none, sz := 0, pid := 0, pgid := 0, sid := 0
    cred := ⟨noId, noId, noId, noId, 0, 0⟩, capInheritable := 0, gids := fun _ => noId
    umask := 0, fdflag := 0, parent := none, name := [], chan := none, killed := false
    xstate := 0, signal := p.signal.map fun _ => 0, state := .unused }

/-- The children of the caller that `wait4` looks at. -/
def selects (t : Table) (caller : Fin nproc) (pid : Int32) (pp : Fin nproc) : Bool :=
  (t pp).parent = some caller ∧
    if 0 < pid then (t pp).pid = pid
    else if pid = 0 then (t pp).pgid = (t caller).pgid
    else pid ≠ -1 → (t pp).pgid = -pid

end Process
end Xv6Duo
