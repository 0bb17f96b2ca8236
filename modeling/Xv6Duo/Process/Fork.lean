import Xv6Duo.Process.Table

/-!
# The child of a fork

`fork`, `allocproc` and `freeproc` of `kernel/proc.c` with every field of `struct proc` but its
lock. A slot of the process table keeps what its last process left in the fields that neither
`freeproc` resets nor `allocproc` and `fork` set.
-/

namespace Xv6Duo
namespace Fork

open Process (nproc nofile ProcState)

/-! ## Data -/

/-- User ids, group ids and capability sets. -/
structure Ids where
  /-- Real user. -/
  uid : UInt32
  /-- Effective user. -/
  euid : UInt32
  /-- Saved user. -/
  suid : UInt32
  /-- User for file access. -/
  fsuid : UInt32
  /-- Real group. -/
  gid : UInt32
  /-- Effective group. -/
  egid : UInt32
  /-- Saved group. -/
  sgid : UInt32
  /-- Group for file access. -/
  fsgid : UInt32
  /-- Effective capabilities. -/
  capEffective : UInt32
  /-- Inheritable capabilities. -/
  capInheritable : UInt32
  /-- Permitted capabilities. -/
  capPermitted : UInt32
  deriving DecidableEq

/-- `struct sigaction`. -/
structure Sigaction where
  /-- Handler. -/
  handler : UInt64
  /-- Signals that are blocked while the handler runs. -/
  mask : UInt64
  /-- Flags. -/
  flags : Int32
  /-- Return code. -/
  restorer : UInt64
  deriving DecidableEq

/-- `struct signal`. -/
structure Signal where
  /-- Blocked signals. -/
  mask : UInt64
  /-- Pending signals. -/
  pending : UInt64
  /-- Actions. -/
  actions : Fin 32 → Sigaction
  deriving DecidableEq

/-- `struct mmap_region` without its link. -/
structure Region where
  /-- First address. -/
  addr : UInt64
  /-- Bytes. -/
  length : UInt64
  /-- Offset in the file. -/
  offset : UInt64
  /-- File. -/
  f : Option Nat
  /-- Protection. -/
  prot : UInt32
  /-- Flags. -/
  flags : UInt32
  deriving DecidableEq

/-- The registers of a `struct trapframe`. -/
abbrev Frame := Fin 36 → UInt64

/-- A frame has words. -/
instance words_ne_zero : NeZero 36 := ⟨by decide⟩

/-- The place of `a0` in a `struct trapframe`. -/
def a0 : Fin 36 := 14

/-- `struct proc`. Pages are named by their addresses, and the null pointer is `0`. -/
@[ext]
structure Proc where
  /-- State. -/
  state : ProcState
  /-- Channel. -/
  chan : UInt64
  /-- The process was killed. -/
  killed : Int32
  /-- The process has paused. -/
  paused : Int32
  /-- Exit status. -/
  xstate : Int32
  /-- Process id. -/
  pid : Int32
  /-- Process group. -/
  pgid : Int32
  /-- Session. -/
  sid : Int32
  /-- Parent. -/
  parent : Option (Fin nproc)
  /-- Ids and capabilities. -/
  ids : Ids
  /-- Kernel stack. -/
  kstack : UInt64
  /-- Size of the process memory. -/
  sz : UInt64
  /-- Page table. -/
  pagetable : Nat
  /-- Page of the trapframe. -/
  trapframe : Nat
  /-- Saved registers of the kernel thread: `ra`, `sp` and `s0` to `s11`. -/
  context : Fin 14 → UInt64
  /-- File mode creation mask. -/
  umask : UInt32
  /-- Descriptor flags. -/
  fdflag : UInt32
  /-- Open files. -/
  ofile : Fin nofile → Option Nat
  /-- Current directory. -/
  cwd : Option Nat
  /-- Name. -/
  name : Fin 16 → UInt8
  /-- Mapped regions. -/
  regions : List Region
  /-- Signals. -/
  signal : Signal
  /-- Saved trapframe. -/
  oldtf : Nat

/-- The process table, the trapframe pages and `nextpid`. -/
structure World where
  /-- `proc`. -/
  table : Fin nproc → Proc
  /-- Trapframes by page. -/
  frames : Nat → Frame
  /-- `nextpid`. -/
  nextpid : Int32

/-- Replace a slot. -/
def World.set (w : World) (i : Fin nproc) (p : Proc) : World :=
  { w with table := Function.update w.table i p }

/-! ## Functions -/

/-- `(uid_t)-1`. -/
def noId : UInt32 := 0xffffffff

/-- `freeproc`. -/
def freeproc (p : Proc) : Proc :=
  { p with
    trapframe := 0, regions := [], pagetable := 0, sz := 0, pid := 0, pgid := 0, sid := 0
    ids := ⟨noId, noId, noId, noId, noId, noId, noId, noId, 0, 0, 0⟩
    umask := 0, fdflag := 0, parent := none, name := Function.update p.name 0 0, chan := 0
    killed := 0, xstate := 0, signal := ⟨0, 0, fun _ => ⟨0, 0, 0, 0⟩⟩, state := .unused }

/-- What the allocators give to one `fork`: the page of the trapframe, the page table that
`proc_pagetable` makes (`0` for none), and whether `uvmcopy` succeeds. -/
structure Supply where
  /-- Page of the trapframe. -/
  trapframe : Nat
  /-- Page table. -/
  pagetable : Nat
  /-- The memory was copied. -/
  copied : Bool

/-- `PGSIZE`. -/
def pgsize : UInt64 := 4096

variable (forkret : UInt64)

/-- The context that `allocproc` sets up. -/
def newContext (kstack : UInt64) : Fin 14 → UInt64 :=
  fun i => if i = 0 then forkret else if i = 1 then kstack + pgsize else 0

/-- `allocproc`. -/
def allocproc (w : World) (supply : Supply) : Option (Fin nproc) × World :=
  match (List.finRange nproc).find? fun i => (w.table i).state = .unused with
  | none => (none, w)
  | some i =>
      let pid := w.nextpid
      let w := { w with nextpid := w.nextpid + 1 }
      let p := { w.table i with
        pid := pid, pgid := pid, sid := pid, state := .used, regions := [], umask := 2
        trapframe := supply.trapframe }
      if supply.trapframe = 0 then (none, w.set i (freeproc p))
      else
        let p := { p with pagetable := supply.pagetable }
        if supply.pagetable = 0 then (none, w.set i (freeproc p))
        else (some i, w.set i { p with context := newContext forkret p.kstack })

/-- `MAP_ANONYMOUS`. -/
def mapAnonymous : UInt32 := 0x20

/-- `copy_mmap_region`. -/
def copyMmapRegion (src : Region) : Region :=
  { src with f := if src.flags &&& mapAnonymous = 0 then src.f else none }

/-- The position behind the characters that `safestrcpy` copies to a name: the terminating zero
among the first 15 characters is copied too. -/
def copyEnd (src : Fin 16 → UInt8) : Nat :=
  match (List.finRange 16).find? fun i => i.val < 15 ∧ src i = 0 with
  | some i => i.val + 1
  | none => 15

/-- `safestrcpy` of a name. -/
def safestrcpy (dst src : Fin 16 → UInt8) : Fin 16 → UInt8 :=
  fun i => if i.val < copyEnd src then src i else if i.val = copyEnd src then 0 else dst i

/-- `ENOMEM`. -/
def enomem : Int32 := 12

/-- The fields of the child that `fork` copies or sets. -/
def copyProc (me : Fin nproc) (p np : Proc) : Proc :=
  { np with
    regions := p.regions.map copyMmapRegion
    sz := p.sz, pgid := p.pgid, sid := p.sid, ids := p.ids
    ofile := fun fd => match p.ofile fd with
      | some f => some f
      | none => np.ofile fd
    fdflag := p.fdflag, cwd := p.cwd, signal := p.signal
    name := safestrcpy np.name p.name
    parent := some me, state := .runnable }

/-- `fork`. -/
def fork (w : World) (me : Fin nproc) (supply : Supply) : Int32 × World :=
  match allocproc forkret w supply with
  | (none, w) => (-enomem, w)
  | (some i, w) =>
      let p := w.table me
      let np := w.table i
      if supply.copied = false then
        (-enomem, w.set i (freeproc { np with regions := p.regions.map copyMmapRegion }))
      else
        let frame := Function.update (w.frames p.trapframe) a0 0
        (np.pid, { w.set i (copyProc me p np) with
          frames := Function.update w.frames np.trapframe frame })

/-! ## What a child has -/

/-- The child is a copy of its parent but for its id, its parent, `a0`, its kernel stack and its
page tables, and it has not been killed, has not exited and is not paused. -/
structure Inherits (p : Proc) (frame : Frame) (child : Proc) (childFrame : Frame) : Prop where
  /-- Process group. -/
  pgid : child.pgid = p.pgid
  /-- Session. -/
  sid : child.sid = p.sid
  /-- Ids and capabilities. -/
  ids : child.ids = p.ids
  /-- File mode creation mask. -/
  umask : child.umask = p.umask
  /-- Open files. -/
  ofile : child.ofile = p.ofile
  /-- Descriptor flags. -/
  fdflag : child.fdflag = p.fdflag
  /-- Current directory. -/
  cwd : child.cwd = p.cwd
  /-- Signals. -/
  signal : child.signal = p.signal
  /-- The names are the same string. -/
  name : ∀ k, (∀ j < k, p.name j ≠ 0) → child.name k = p.name k
  /-- Mapped regions. -/
  regions : child.regions = p.regions
  /-- Size. -/
  sz : child.sz = p.sz
  /-- Saved trapframe. -/
  oldtf : child.oldtf = p.oldtf
  /-- Registers. -/
  frame : ∀ r, r ≠ a0 → childFrame r = frame r
  /-- Not killed. -/
  killed : child.killed = 0
  /-- Not exited. -/
  xstate : child.xstate = 0
  /-- Not paused. -/
  paused : child.paused = 0

/-- A slot that has never been used. -/
def cleared (kstack : UInt64) : Proc where
  state := .unused
  chan := 0
  killed := 0
  paused := 0
  xstate := 0
  pid := 0
  pgid := 0
  sid := 0
  parent := none
  ids := ⟨0, 0, 0, 0, 0, 0, 0, 0, 0, 0, 0⟩
  kstack := kstack
  sz := 0
  pagetable := 0
  trapframe := 0
  context _ := 0
  umask := 0
  fdflag := 0
  ofile _ := none
  cwd := none
  name _ := 0
  regions := []
  signal := ⟨0, 0, fun _ => ⟨0, 0, 0, 0⟩⟩
  oldtf := 0

/-- A free slot after its last process, if there was one. -/
def vacated (kstack : UInt64) : Option Proc → Proc
  | none => cleared kstack
  | some last => { freeproc last with kstack := kstack }

/-- The process table with another last process in a slot. -/
def World.after (w : World) (i : Fin nproc) (last : Option Proc) : World :=
  w.set i (vacated (w.table i).kstack last)

/-- The pages are there and the memory can be copied. -/
structure Supply.Granted (supply : Supply) : Prop where
  /-- Trapframe. -/
  trapframe : supply.trapframe ≠ 0
  /-- Page table. -/
  pagetable : supply.pagetable ≠ 0
  /-- Memory. -/
  copied : supply.copied = true

/-- The last process of a slot has left nothing that the child of `p` does not have. -/
structure Leaves (p slot : Proc) : Prop where
  /-- It was not paused. -/
  paused : slot.paused = 0
  /-- It had closed the descriptors that the parent does not use. -/
  ofile : ∀ fd, p.ofile fd = none → slot.ofile fd = none
  /-- It had the saved trapframe of the parent. -/
  oldtf : slot.oldtf = p.oldtf

/-- The parent has the mask that `allocproc` sets, a name that ends, and no file behind an anonymous
region. -/
structure Copyable (p : Proc) : Prop where
  /-- File mode creation mask. -/
  umask : p.umask = 2
  /-- Name. -/
  name : ∃ k, p.name k = 0
  /-- Regions. -/
  regions : ∀ r ∈ p.regions, r.flags &&& mapAnonymous ≠ 0 → r.f = none

/-! ## Names -/

theorem copyEnd_cases (src : Fin 16 → UInt8) :
    (∃ i : Fin 16, src i = 0 ∧ copyEnd src = i.val + 1) ∨
      copyEnd src = 15 ∧ ∀ i : Fin 16, i.val < 15 → src i ≠ 0 := by
  rw [copyEnd]
  split
  · next i found =>
      have chosen := List.find?_some found
      simp only [decide_eq_true_eq] at chosen
      exact Or.inl ⟨i, chosen.2, rfl⟩
  · next missing =>
      rw [List.find?_eq_none] at missing
      refine Or.inr ⟨rfl, fun i below zero => ?_⟩
      have := missing i (List.mem_finRange i)
      simp only [decide_eq_true_eq] at this
      exact this ⟨below, zero⟩

/-- A copied name is the same string exactly if the name ends. -/
theorem safestrcpy_same_iff (dst src : Fin 16 → UInt8) :
    (∀ k, (∀ j < k, src j ≠ 0) → safestrcpy dst src k = src k) ↔ ∃ k, src k = 0 := by
  constructor
  · intro same
    by_contra! nonzero
    cases copyEnd_cases src with
    | inl found =>
        obtain ⟨i, zero, -⟩ := found
        exact nonzero i zero
    | inr missing =>
        have last := same 15 fun j _ => nonzero j
        simp only [safestrcpy, missing.1] at last
        exact nonzero 15 last.symm
  · rintro ⟨k, zero⟩ i earlier
    rw [safestrcpy]
    split
    · rfl
    · next beyond =>
        cases copyEnd_cases src with
        | inl found =>
            obtain ⟨j, zero_j, copyEnd_eq⟩ := found
            have : j < i := by
              rw [Fin.lt_def]
              omega
            exact absurd zero_j (earlier j this)
        | inr missing =>
            have i_eq : i = 15 := by
              apply Fin.ext
              have := i.isLt
              change i.val = 15
              omega
            have k_eq : k = 15 := by
              apply Fin.ext
              have := k.isLt
              by_contra differs
              exact missing.2 k (by change k.val ≠ 15 at differs; omega) zero
            subst i_eq k_eq
            rw [missing.1, zero]
            rfl

theorem safestrcpy_eq_iff (left right src : Fin 16 → UInt8) :
    safestrcpy left src = safestrcpy right src ↔
      ∀ i : Fin 16, copyEnd src < i.val → left i = right i := by
  constructor
  · intro same i beyond
    have := congrFun same i
    simpa only [safestrcpy, if_neg (show ¬i.val < copyEnd src by omega),
      if_neg (show ¬i.val = copyEnd src by omega)] using this
  · intro same
    funext i
    simp only [safestrcpy]
    split
    · rfl
    · split
      · rfl
      · exact same i (by omega)

/-! ## The child -/

variable {w : World} {me i : Fin nproc} {supply : Supply}

theorem allocproc_eq {slot : Proc} (earlier : ∀ j < i, (w.table j).state ≠ .unused)
    (granted : supply.Granted) (free : slot.state = .unused) :
    allocproc forkret (w.set i slot) supply = (some i, { w with nextpid := w.nextpid + 1 }.set i
      { slot with
        pid := w.nextpid, pgid := w.nextpid, sid := w.nextpid, state := .used, regions := []
        umask := 2, trapframe := supply.trapframe, pagetable := supply.pagetable
        context := newContext forkret slot.kstack }) := by
  have first : (List.finRange nproc).find? (fun j => ((w.set i slot).table j).state = .unused) =
      some i := by
    rw [List.find?_eq_some_iff_getElem]
    refine ⟨by simp [World.set, free], i.val, by simp, by simp, ?_⟩
    intro j below
    have differs : (⟨j, below.trans i.isLt⟩ : Fin nproc) ≠ i := by
      intro same
      rw [← same] at below
      exact lt_irrefl j below
    simpa [World.set, differs] using earlier ⟨j, below.trans i.isLt⟩ below
  rw [allocproc, first]
  simp only [granted.trapframe, granted.pagetable, if_false, World.set, Function.update_self,
    Function.update_idem]

/-- The child of a successful `fork` and its registers. -/
theorem fork_child (earlier : ∀ j < i, (w.table j).state ≠ .unused) (other : me ≠ i)
    (granted : supply.Granted) {slot : Proc} (free : slot.state = .unused) :
    let after := (fork forkret (w.set i slot) me supply).2
    after.table i = copyProc me (w.table me) { slot with
        pid := w.nextpid, pgid := w.nextpid, sid := w.nextpid, state := .used, regions := []
        umask := 2, trapframe := supply.trapframe, pagetable := supply.pagetable
        context := newContext forkret slot.kstack } ∧
      after.frames supply.trapframe =
        Function.update (w.frames (w.table me).trapframe) a0 0 := by
  simp only [fork, allocproc_eq forkret earlier granted free, granted.copied]
  constructor
  · simp [World.set, other]
  · simp [World.set, other]

/-- The child of `p` in a slot that was free. -/
theorem inherits_iff {p slot : Proc} {frame : Frame} {pid : Int32} {trapframe pagetable : Nat}
    {context : Fin 14 → UInt64} (killed : slot.killed = 0) (xstate : slot.xstate = 0) :
    Inherits p frame (copyProc me p { slot with
        pid := pid, pgid := pid, sid := pid, state := .used, regions := []
        umask := 2, trapframe := trapframe, pagetable := pagetable, context := context })
      (Function.update frame a0 0) ↔ Copyable p ∧ Leaves p slot := by
  constructor
  · intro inherits
    refine ⟨⟨inherits.umask.symm, ?_, ?_⟩, ⟨inherits.paused, ?_, inherits.oldtf⟩⟩
    · exact (safestrcpy_same_iff slot.name p.name).mp inherits.name
    · intro r member anonymous
      have same : p.regions.map copyMmapRegion = p.regions.map id := by
        rw [List.map_id]
        exact inherits.regions
      have copied : copyMmapRegion r = r := List.map_inj_left.mp same r member
      rw [← copied, copyMmapRegion, if_neg anonymous]
    · intro fd closed
      have same := congrFun inherits.ofile fd
      simpa [copyProc, closed] using same
  · rintro ⟨copyable, leaves⟩
    constructor
    case umask => exact copyable.umask.symm
    case ofile =>
      funext fd
      cases opened : p.ofile fd with
      | none => simpa [copyProc, opened] using leaves.ofile fd opened
      | some f => simp [copyProc, opened]
    case name => exact (safestrcpy_same_iff slot.name p.name).mpr copyable.name
    case regions =>
      change p.regions.map copyMmapRegion = p.regions
      nth_rewrite 2 [← List.map_id p.regions]
      apply List.map_inj_left.mpr
      intro r member
      by_cases anonymous : r.flags &&& mapAnonymous = 0
      · simp [copyMmapRegion, anonymous]
      · have := copyable.regions r member anonymous
        simp [copyMmapRegion, anonymous, ← this]
    case oldtf => exact leaves.oldtf
    case frame =>
      intro r differs
      rw [Function.update_of_ne differs]
    case killed => exact killed
    case xstate => exact xstate
    case paused => exact leaves.paused
    all_goals rfl

theorem vacated_fields (kstack : UInt64) (last : Option Proc) :
    (vacated kstack last).state = .unused ∧ (vacated kstack last).killed = 0 ∧
      (vacated kstack last).xstate = 0 ∧ (vacated kstack last).chan = 0 ∧
      (vacated kstack last).kstack = kstack := by
  cases last with
  | none => exact ⟨rfl, rfl, rfl, rfl, rfl⟩
  | some q => exact ⟨rfl, rfl, rfl, rfl, rfl⟩

/-- Two successful forks that differ in the last process of the slot give children that are copies
of the parent and equal to each other exactly if the parent can be copied, neither process has left
anything that the child does not have, and both have left the same bytes behind the name. -/
theorem fork_inherits_iff (earlier : ∀ j < i, (w.table j).state ≠ .unused) (other : me ≠ i)
    (granted : supply.Granted) (last last' : Option Proc) :
    let p := w.table me
    let frame := w.frames p.trapframe
    let one := (fork forkret (w.after i last) me supply).2
    let two := (fork forkret (w.after i last') me supply).2
    Inherits p frame (one.table i) (one.frames supply.trapframe) ∧
        Inherits p frame (two.table i) (two.frames supply.trapframe) ∧
        one.table i = two.table i ∧
        one.frames supply.trapframe = two.frames supply.trapframe ↔
      Copyable p ∧ Leaves p (vacated (w.table i).kstack last) ∧
        Leaves p (vacated (w.table i).kstack last') ∧
        ∀ k : Fin 16, copyEnd p.name < k.val →
          (vacated (w.table i).kstack last).name k = (vacated (w.table i).kstack last').name k := by
  obtain ⟨free, killed, xstate, chan, kstack⟩ := vacated_fields (w.table i).kstack last
  obtain ⟨free', killed', xstate', chan', kstack'⟩ := vacated_fields (w.table i).kstack last'
  obtain ⟨table, frames⟩ := fork_child forkret earlier other granted free
  obtain ⟨table', frames'⟩ := fork_child forkret earlier other granted free'
  simp only [World.after, table, frames, table', frames', inherits_iff killed xstate,
    inherits_iff killed' xstate', and_true]
  constructor
  · rintro ⟨⟨copyable, leaves⟩, ⟨-, leaves'⟩, same⟩
    refine ⟨copyable, leaves, leaves', ?_⟩
    exact (safestrcpy_eq_iff _ _ _).mp (congrArg Proc.name same)
  · rintro ⟨copyable, leaves, leaves', tail⟩
    refine ⟨⟨copyable, leaves⟩, ⟨copyable, leaves'⟩, ?_⟩
    apply Proc.ext
    case chan => exact chan.trans chan'.symm
    case killed => exact killed.trans killed'.symm
    case paused => exact leaves.paused.trans leaves'.paused.symm
    case xstate => exact xstate.trans xstate'.symm
    case kstack => exact kstack.trans kstack'.symm
    case context => rw [copyProc, copyProc, kstack, kstack']
    case ofile =>
      funext fd
      cases opened : (w.table me).ofile fd with
      | none => simp [copyProc, opened, leaves.ofile fd opened, leaves'.ofile fd opened]
      | some f => simp [copyProc, opened]
    case name => exact (safestrcpy_eq_iff _ _ _).mpr tail
    case oldtf => exact leaves.oldtf.trans leaves'.oldtf.symm
    all_goals rfl

/-- The first slot. -/
def slot0 : Fin nproc := ⟨0, Process.nproc_pos⟩

/-- The second slot. -/
def slot1 : Fin nproc := ⟨1, Process.one_lt_nproc⟩

/-- A process table whose first slot runs a process with the given mask. -/
def alone (umask : UInt32) : World where
  table i :=
    if i = slot0 then { cleared 0 with state := .running, pid := 1, umask := umask, cwd := some 1 }
    else cleared 0
  frames _ _ := 0
  nextpid := 2

/-- Pages for one `fork`. -/
def plenty : Supply := ⟨1, 2, true⟩

/-- A process that exited. -/
def exitedProc : Proc := { cleared 0 with state := .zombie, pid := 2, xstate := 1, umask := 0o22 }

theorem plenty_granted : plenty.Granted := ⟨by decide, by decide, rfl⟩

/-- With the mask of `allocproc` the child in a slot that has never been used and the child in the
slot of an exited process are the same copy of their parent. -/
theorem alone_inherits :
    let after last := (fork 0 ((alone 2).after slot1 last) slot0 plenty).2
    Inherits ((alone 2).table slot0) ((alone 2).frames 0) ((after none).table slot1)
        ((after none).frames 1) ∧
      (after none).table slot1 = (after (some exitedProc)).table slot1 := by
  have leaves : ∀ last, last = none ∨ last = some exitedProc →
      Leaves ((alone 2).table slot0) (vacated 0 last) := by
    rintro last (rfl | rfl)
    · exact ⟨rfl, fun _ _ => rfl, rfl⟩
    · exact ⟨rfl, fun _ _ => rfl, rfl⟩
  have earlier : ∀ j < slot1, ((alone 2).table j).state ≠ .unused := by
    intro j below
    have first : j = slot0 := Fin.ext (Nat.lt_one_iff.mp (Fin.lt_def.mp below))
    subst first
    decide
  have names : ∀ k, (vacated 0 none).name k = (vacated 0 (some exitedProc)).name k := by
    intro k
    simp [vacated, freeproc, exitedProc, cleared]
  have both := (fork_inherits_iff 0 earlier (show slot0 ≠ slot1 by decide) plenty_granted none
    (some exitedProc)).mpr ⟨⟨rfl, ⟨0, rfl⟩, fun r member => by cases member⟩,
      leaves none (Or.inl rfl), leaves _ (Or.inr rfl), fun k _ => names k⟩
  exact ⟨both.1, both.2.2.1⟩

/-- The child of a process with the mask `022` has the mask `002`, and a child is paused when the
last process of its slot was. -/
theorem fork_loses_umask :
    let after last := (fork 0 ((alone 0o22).after slot1 last) slot0 plenty).2
    ¬Inherits ((alone 0o22).table slot0) ((alone 0o22).frames 0) ((after none).table slot1)
        ((after none).frames 1) ∧
      (after none).table slot1 ≠ (after (some { exitedProc with paused := 1 })).table slot1 := by
  constructor
  · intro inherits
    exact absurd inherits.umask (by decide)
  · intro same
    exact absurd (congrArg Proc.paused same) (by decide)

end Fork
end Xv6Duo
